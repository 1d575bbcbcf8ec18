import QueryLineage.Proofs.Tree.Pass

/-!
# What grouping leaves alone

Most keywords, blanks, comments and marks stay where they are: no group begins with them. Where
such nodes stand at the beginning of a row, grouping goes on behind them, and the keywords among
the nodes of a grouped row are some of those that were there before.
-/

namespace QueryLineage.Node

/-- A node that no group begins with. -/
structure Inert (node : Node) : Prop where
  item : node.isItem = false
  sign : node.isSign = false
  noWhere : node.isWord "WHERE" = false
  noCase : node.isWord "CASE" = false

theorem isFiller_of_isWhitespace {node : Node} (h : node.isWhitespace = true) :
    node.isFiller .all = true := by
  rw [isFiller_all, h, Bool.true_or]

theorem inert_of_isFiller {node : Node} (h : node.isFiller .all = true) : node.Inert := by
  rw [isFiller_all, Bool.or_eq_true] at h
  have hkind : node.kind = .whitespace ∨ node.kind = .comment := h.imp beq_iff_eq.1 beq_iff_eq.1
  constructor
  · rcases hkind with hkind | hkind <;> simp [isItem, isOperand, isKind, hkind, Kind.isOperand]
  · rcases hkind with hkind | hkind <;> simp [isSign, isKind, hkind]
  all_goals rcases hkind with hkind | hkind <;> simp [isWord, isKeyword, hkind, Kind.isKeyword]

section Passes

variable {extent : Node → List Node → Option Nat} {join : Node → List Node → Node}
  {node : Node} {siblings : List Node}

@[simp] theorem joinOnce_nil : joinOnce extent join [] = [] := by
  simp [joinOnce]

@[simp] theorem joinRepeatedly_nil : joinRepeatedly extent join [] = [] := by
  simp [joinRepeatedly]

theorem joinOnce_cons_of_none (h : extent node siblings = none) :
    joinOnce extent join (node :: siblings) = node :: joinOnce extent join siblings := by
  rw [joinOnce, h]

theorem joinOnce_cons_of_some {n : Nat} (h : extent node siblings = some n) :
    joinOnce extent join (node :: siblings) =
      join node (siblings.take n) :: joinOnce extent join (siblings.drop n) := by
  rw [joinOnce, h]

theorem joinRepeatedly_cons_of_none (h : extent node siblings = none) :
    joinRepeatedly extent join (node :: siblings) = node :: joinRepeatedly extent join siblings := by
  cases siblings with
  | nil => simp [joinRepeatedly]
  | cons next siblings => rw [joinRepeatedly, h]

theorem joinRepeatedly_cons_of_some {n : Nat} (h : extent node siblings = some (n + 1))
    (hne : siblings ≠ []) :
    joinRepeatedly extent join (node :: siblings) =
      joinRepeatedly extent join (join node (siblings.take (n + 1)) :: siblings.drop (n + 1)) := by
  obtain ⟨next, siblings, rfl⟩ := List.exists_cons_of_ne_nil hne
  rw [joinRepeatedly, h]
  rfl

end Passes

section Extents

variable {node : Node}

theorem callExtent_of_not_operand (h : node.isOperand = false) (siblings : List Node) :
    callExtent node siblings = none := by
  rw [callExtent, if_neg]
  intro hname
  rw [isOperand, beq_iff_eq.1 hname] at h
  cases h

theorem identifierExtent_of_not_operand (h : node.isOperand = false) (siblings : List Node) :
    identifierExtent node siblings = none := by
  have hname : node.isKind .name = false := by
    rw [← Bool.not_eq_true]
    intro hname
    rw [isOperand, beq_iff_eq.1 hname] at h
    cases h
  have hfunction : node.isKind .function = false := by
    rw [← Bool.not_eq_true]
    intro hfunction
    rw [isOperand, beq_iff_eq.1 hfunction] at h
    cases h
  simp [identifierExtent, hname, hfunction]

theorem operationExtent_of_not_operand (h : node.isOperand = false) (siblings : List Node) :
    operationExtent node siblings = none := by
  simp [operationExtent, h]

theorem comparisonExtent_of_not_operand (h : node.isOperand = false) (siblings : List Node) :
    comparisonExtent node siblings = none := by
  simp [comparisonExtent, h]

theorem asExtent_of_not_operand (h : node.isOperand = false)
    (hcomparison : node.isKind .comparison = false)
    (siblings : List Node) : asExtent node siblings = none := by
  simp [asExtent, h, hcomparison]

theorem aliasExtent_of_not_operand (h : node.isOperand = false) (siblings : List Node) :
    aliasExtent node siblings = none := by
  rw [aliasExtent, if_neg]
  intro htakes
  unfold takesAlias at htakes
  unfold isOperand at h
  split at htakes <;> simp_all [Kind.isOperand]

theorem directionExtent_of_not_operand (h : node.isOperand = false) (siblings : List Node) :
    directionExtent node siblings = none := by
  simp [directionExtent, h]

theorem commentExtent_of_not_operand (h : node.isOperand = false) (siblings : List Node) :
    commentExtent node siblings = none := by
  rw [commentExtent, if_neg]
  intro hidentifier
  rw [isOperand, beq_iff_eq.1 hidentifier] at h
  cases h

theorem listExtent_of_not_item (h : node.isItem = false) (siblings : List Node) :
    listExtent node siblings = none := by
  simp [listExtent, h]

end Extents

theorem groupSigns_cons {node : Node} (h : node.isSign = false) (preceded : Bool)
    (siblings : List Node) :
    groupSigns preceded (node :: siblings) =
      node :: groupSigns (if node.isWhitespace then preceded else node.isOperand) siblings := by
  cases siblings with
  | nil => simp [groupSigns]
  | cons next siblings => simp [groupSigns, h]

theorem groupItems_cons {node : Node} (hoperand : node.isOperand = false)
    (hcomparison : node.isKind .comparison = false) (hsign : node.isSign = false)
    (siblings : List Node) : groupItems (node :: siblings) = node :: groupItems siblings := by
  unfold groupItems
  simp only
  rw [joinOnce_cons_of_none (callExtent_of_not_operand hoperand _),
    joinOnce_cons_of_none (identifierExtent_of_not_operand hoperand _),
    groupSigns_cons hsign, hoperand, ite_self,
    joinRepeatedly_cons_of_none (operationExtent_of_not_operand hoperand _),
    joinOnce_cons_of_none (comparisonExtent_of_not_operand hoperand _),
    joinRepeatedly_cons_of_none (asExtent_of_not_operand hoperand hcomparison _),
    joinOnce_cons_of_none (aliasExtent_of_not_operand hoperand _),
    joinOnce_cons_of_none (directionExtent_of_not_operand hoperand _),
    joinRepeatedly_cons_of_none (commentExtent_of_not_operand hoperand _)]

namespace Inert

variable {node : Node} (h : node.Inert)
include h

theorem groupItems_cons (siblings : List Node) :
    groupItems (node :: siblings) = node :: groupItems siblings := by
  have hitem := h.item
  simp only [isItem, Bool.or_eq_false_iff] at hitem
  exact Node.groupItems_cons hitem.1.1 hitem.2 h.sign siblings

theorem groupExpressions_cons (siblings : List Node) :
    groupExpressions (node :: siblings) = node :: groupExpressions siblings := by
  rw [groupExpressions_eq, h.groupItems_cons, joinOnce_cons_of_none (listExtent_of_not_item h.item _),
    groupExpressions_eq]

theorem groupLevel_cons (siblings : List Node) :
    groupLevel (node :: siblings) = node :: groupLevel siblings := by
  rw [groupLevel, groupCases, if_neg (by simp [h.noCase]), h.groupExpressions_cons, groupLevel]

theorem groupRun_cons (siblings : List Node) :
    groupRun (node :: siblings) = node :: groupRun siblings := by
  rw [groupRun, groupWheres, if_neg (by simp [h.noWhere]), h.groupLevel_cons, groupRun]

end Inert

section Keywords

variable {extent : Node → List Node → Option Nat} {join : Node → List Node → Node}

theorem filter_isKeyword_cons {others siblings : List Node} (node : Node)
    (h : (others.filter isKeyword).Sublist (siblings.filter isKeyword)) :
    ((node :: others).filter isKeyword).Sublist ((node :: siblings).filter isKeyword) := by
  by_cases hnode : node.isKeyword = true
  · rw [List.filter_cons_of_pos hnode, List.filter_cons_of_pos hnode]
    exact h.cons_cons node
  · rw [List.filter_cons_of_neg hnode, List.filter_cons_of_neg hnode]
    exact h

theorem filter_isKeyword_joinOnce (hjoin : ∀ node siblings, (join node siblings).isKeyword = false)
    (siblings : List Node) :
    ((joinOnce extent join siblings).filter isKeyword).Sublist (siblings.filter isKeyword) := by
  fun_induction joinOnce extent join siblings with
  | case1 => exact List.Sublist.refl _
  | case2 node siblings n _ ih =>
    rw [List.filter_cons_of_neg (by simp [hjoin])]
    exact ih.trans (((List.drop_sublist n siblings).cons node).filter _)
  | case3 node siblings _ ih =>
    exact filter_isKeyword_cons node ih

theorem filter_isKeyword_joinRepeatedly
    (hjoin : ∀ node siblings, (join node siblings).isKeyword = false) (siblings : List Node) :
    ((joinRepeatedly extent join siblings).filter isKeyword).Sublist
      (siblings.filter isKeyword) := by
  fun_induction joinRepeatedly extent join siblings with
  | case1 => exact List.Sublist.refl _
  | case2 => exact List.Sublist.refl _
  | case3 node next siblings n _ ih =>
    rw [List.filter_cons_of_neg (by simp [hjoin])] at ih
    exact ih.trans ((((List.drop_sublist n siblings).cons next).cons node).filter _)
  | case4 node next siblings _ ih =>
    exact filter_isKeyword_cons node ih

theorem filter_isKeyword_groupSigns (preceded : Bool) (siblings : List Node) :
    ((groupSigns preceded siblings).filter isKeyword).Sublist (siblings.filter isKeyword) := by
  fun_induction groupSigns preceded siblings with
  | case1 preceded sign operand siblings _ ih =>
    rw [List.filter_cons_of_neg (by simp [enclose, isKeyword, Kind.isKeyword])]
    exact ih.trans ((((List.Sublist.refl siblings).cons operand).cons sign).filter _)
  | case2 preceded sign operand siblings _ ih =>
    exact filter_isKeyword_cons sign ih
  | case3 => exact List.Sublist.refl _

theorem isKeyword_attach (node : Node) (siblings : List Node) :
    (attach node siblings).isKeyword = false := by
  unfold attach
  split <;> rfl

theorem filter_isKeyword_groupExpressions (siblings : List Node) :
    ((groupExpressions siblings).filter isKeyword).Sublist (siblings.filter isKeyword) := by
  unfold groupExpressions
  refine (filter_isKeyword_joinOnce (fun _ _ => rfl) _).trans ?_
  refine (filter_isKeyword_joinRepeatedly isKeyword_attach _).trans ?_
  refine (filter_isKeyword_joinOnce isKeyword_attach _).trans ?_
  refine (filter_isKeyword_joinOnce (fun _ _ => rfl) _).trans ?_
  refine (filter_isKeyword_joinRepeatedly (fun _ _ => rfl) _).trans ?_
  refine (filter_isKeyword_joinOnce (fun _ _ => rfl) _).trans ?_
  refine (filter_isKeyword_joinRepeatedly (fun _ _ => rfl) _).trans ?_
  refine (filter_isKeyword_groupSigns false _).trans ?_
  refine (filter_isKeyword_joinOnce (fun _ _ => rfl) _).trans ?_
  exact filter_isKeyword_joinOnce (fun _ _ => rfl) siblings

theorem filter_isKeyword_groupCases (siblings : List Node) :
    ((groupCases siblings).filter isKeyword).Sublist (siblings.filter isKeyword) := by
  fun_induction groupCases siblings with
  | case1 => exact List.Sublist.refl _
  | case2 node siblings _ n _ _ ih =>
    rw [List.filter_cons_of_neg (by simp [isKeyword, Kind.isKeyword])]
    exact ih.trans (((List.drop_sublist (n + 1) siblings).cons node).filter _)
  | case3 node siblings _ _ ih => exact filter_isKeyword_cons node ih
  | case4 node siblings _ ih => exact filter_isKeyword_cons node ih

theorem filter_isKeyword_groupWheres (siblings : List Node) :
    ((groupWheres siblings).filter isKeyword).Sublist (siblings.filter isKeyword) := by
  fun_induction groupWheres siblings with
  | case1 => exact List.Sublist.refl _
  | case2 node siblings _ clause ih =>
    rw [List.filter_cons_of_neg (by simp [isKeyword, Kind.isKeyword])]
    exact ih.trans (((List.drop_sublist clause.length siblings).cons node).filter _)
  | case3 node siblings _ ih => exact filter_isKeyword_cons node ih

/-- The keywords among the nodes of a grouped row were there before. -/
theorem filter_isKeyword_groupRun (siblings : List Node) :
    ((groupRun siblings).filter isKeyword).Sublist (siblings.filter isKeyword) :=
  (filter_isKeyword_groupExpressions _).trans
    ((filter_isKeyword_groupCases _).trans (filter_isKeyword_groupWheres siblings))

end Keywords

end QueryLineage.Node
