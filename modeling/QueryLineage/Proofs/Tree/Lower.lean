import QueryLineage.Proofs.Lexeme.Lower
import QueryLineage.Proofs.Tree.Pass

/-!
# Trees in lower case

Grouping asks of a node for its kind, for the marks it may be, and for the keyword it is known as.
None of these depends on the case of the letters of ASCII, so a row in lower case is grouped like the
row itself.
-/

namespace QueryLineage

open Text

namespace Node

mutual

/-- The node with its leaves in lower case. -/
def lower : Node → Node
  | leaf kind text => leaf kind text.toLower
  | group kind children => group kind (lowerAll children)

def lowerAll : List Node → List Node
  | [] => []
  | node :: siblings => node.lower :: lowerAll siblings

end

theorem lowerAll_eq_map (siblings : List Node) : lowerAll siblings = siblings.map lower := by
  induction siblings with
  | nil => simp [lowerAll]
  | cons node siblings ih => simp [lowerAll, ih]

@[simp] theorem lower_leaf (kind : Kind) (text : String) :
    (leaf kind text).lower = leaf kind text.toLower := by
  simp [lower]

@[simp] theorem lower_group (kind : Kind) (children : List Node) :
    (group kind children).lower = group kind (children.map lower) := by
  simp [lower, lowerAll_eq_map]

mutual

@[simp] theorem text_lower : ∀ node : Node, node.lower.text = node.text.toLower
  | leaf kind text => by simp
  | group kind children => by rw [lower_group, text_group, textAll_map_lower children, text_group]

theorem textAll_map_lower : ∀ siblings : List Node,
    textAll (siblings.map lower) = (textAll siblings).toLower
  | [] => by simp
  | node :: siblings => by
    rw [List.map_cons, textAll_cons, text_lower node, textAll_map_lower siblings, textAll_cons,
      toLower_append]

end

section

variable (node : Node)

@[simp] theorem kind_lower : node.lower.kind = node.kind := by
  cases node <;> simp

@[simp] theorem children_lower : node.lower.children = node.children.map lower := by
  cases node <;> simp

@[simp] theorem isKind_lower (kind : Kind) : node.lower.isKind kind = node.isKind kind := by
  rw [isKind, kind_lower, isKind]

@[simp] theorem isWhitespace_lower : node.lower.isWhitespace = node.isWhitespace := by
  rw [isWhitespace, kind_lower, isWhitespace]

@[simp] theorem isComment_lower : node.lower.isComment = node.isComment := by
  rw [isComment, kind_lower, isComment]

@[simp] theorem isPunctuation_lower : node.lower.isPunctuation = node.isPunctuation := by
  rw [isPunctuation, kind_lower, isPunctuation]

@[simp] theorem isKeyword_lower : node.lower.isKeyword = node.isKeyword := by
  rw [isKeyword, kind_lower, isKeyword]

@[simp] theorem isOperand_lower : node.lower.isOperand = node.isOperand := by
  rw [isOperand, kind_lower, isOperand]

@[simp] theorem isFiller_lower (filler : Filler) :
    node.lower.isFiller filler = node.isFiller filler := by
  rw [isFiller, isWhitespace_lower, isComment_lower, isFiller]

@[simp] theorem isItem_lower : node.lower.isItem = node.isItem := by
  rw [isItem, isOperand_lower, isKind_lower, isKind_lower, isItem]

@[simp] theorem isWord_lower (word : String) : node.lower.isWord word = node.isWord word := by
  rw [isWord, isWord, isKeyword_lower]
  cases h : node.isKeyword with
  | false => rfl
  | true =>
    rw [normalized_of_isKeyword h, normalized_of_isKeyword (by rw [isKeyword_lower, h]), text_lower,
      upper_collapse_toLower]

@[simp] theorem isWordIn_lower (words : List String) :
    node.lower.isWordIn words = node.isWordIn words := by
  rw [isWordIn, isWordIn, isKeyword_lower]
  cases h : node.isKeyword with
  | false => rfl
  | true =>
    rw [normalized_of_isKeyword h, normalized_of_isKeyword (by rw [isKeyword_lower, h]), text_lower,
      upper_collapse_toLower]

theorem text_lower_beq {mark : String} (h : mark.toList.any Char.isAlpha = false) :
    (node.lower.text == mark) = (node.text == mark) := by
  rw [Bool.eq_iff_iff, beq_iff_eq, beq_iff_eq, text_lower, toLower_eq_mark_iff h]

theorem isMark_lower {mark : String} (h : mark.toList.any Char.isAlpha = false) :
    node.lower.isMark mark = node.isMark mark := by
  rw [isMark, isPunctuation_lower, text_lower_beq node h, isMark]

@[simp] theorem isSign_lower : node.lower.isSign = node.isSign := by
  rw [isSign, isKind_lower, text_lower_beq node (by decide), text_lower_beq node (by decide), isSign]

@[simp] theorem endsWhere_lower : node.lower.endsWhere = node.endsWhere := by
  rw [endsWhere, isMark_lower node (by decide), isWordIn_lower, endsWhere]

@[simp] theorem isNamePart_lower : node.lower.isNamePart = node.isNamePart := by
  rw [isNamePart, kind_lower, isNamePart]

@[simp] theorem isAliasOrBody_lower : node.lower.isAliasOrBody = node.isAliasOrBody := by
  rw [isAliasOrBody, kind_lower, isAliasOrBody]

@[simp] theorem takesAlias_lower : node.lower.takesAlias = node.takesAlias := by
  have hblank : (node.children.map lower).any isWhitespace = node.children.any isWhitespace := by
    simp [List.any_map, Function.comp_def]
  rw [takesAlias, kind_lower, children_lower, hblank, takesAlias]

@[simp] theorem isSingleName_lower : node.lower.isSingleName = node.isSingleName := by
  rw [isSingleName, isKind_lower, children_lower, isSingleName]
  match node.children with
  | [] => rfl
  | [part] => simp
  | part :: other :: parts => rfl

end

section

variable {p : Node → Bool}

theorem reach_map_lower (filler : Filler) (hp : ∀ node, p node.lower = p node)
    (siblings : List Node) : reach filler p (siblings.map lower) = reach filler p siblings := by
  induction siblings with
  | nil => rfl
  | cons node siblings ih => rw [List.map_cons, reach, reach, isFiller_lower, hp, ih]

theorem reaches_map_lower (filler : Filler) {ps : List (Node → Bool)}
    (hps : ∀ p ∈ ps, ∀ node, p node.lower = p node) (siblings : List Node) :
    reaches filler ps (siblings.map lower) = reaches filler ps siblings := by
  induction ps generalizing siblings with
  | nil => rfl
  | cons p ps ih =>
    have hrest : ∀ n, reaches filler ps ((siblings.map lower).drop n) =
        reaches filler ps (siblings.drop n) := by
      intro n
      rw [← List.map_drop]
      exact ih (fun q hq => hps q (List.mem_cons_of_mem _ hq)) _
    rw [reaches, reaches, reach_map_lower filler (hps p List.mem_cons_self)]
    simp only [hrest]

end

section

variable (node : Node) (siblings : List Node)

theorem callExtent_lower :
    callExtent node.lower (siblings.map lower) = callExtent node siblings := by
  have hwindow : ∀ others : List Node, windowExtent (others.map lower) = windowExtent others :=
    fun others => reaches_map_lower .blanks (by simp) others
  rw [callExtent, isKind_lower, reach_map_lower .blanks (isKind_lower · .parenthesis)]
  simp only [← List.map_drop, hwindow, callExtent]

theorem dottedExtent_lower : dottedExtent (siblings.map lower) = dottedExtent siblings := by
  fun_induction dottedExtent siblings with
  | case1 dot part siblings h ih =>
    rw [List.map_cons, List.map_cons, dottedExtent, isMark_lower dot (by decide), isNamePart_lower,
      if_pos h, ih]
  | case2 dot part siblings h =>
    rw [List.map_cons, List.map_cons, dottedExtent, isMark_lower dot (by decide), isNamePart_lower,
      if_neg h]
  | case3 siblings h =>
    match siblings with
    | [] => rfl
    | [node] => rfl
    | dot :: part :: siblings => exact absurd rfl (h dot part siblings)

theorem identifierExtent_lower :
    identifierExtent node.lower (siblings.map lower) = identifierExtent node siblings := by
  simp only [identifierExtent, dottedExtent_lower, isKind_lower]

theorem operationExtent_lower :
    operationExtent node.lower (siblings.map lower) = operationExtent node siblings := by
  rw [operationExtent, isOperand_lower, reaches_map_lower .blanks (by simp), operationExtent]

theorem comparisonExtent_lower :
    comparisonExtent node.lower (siblings.map lower) = comparisonExtent node siblings := by
  rw [comparisonExtent, isOperand_lower, reaches_map_lower .blanks (by simp), comparisonExtent]

theorem asExtent_lower : asExtent node.lower (siblings.map lower) = asExtent node siblings := by
  rw [asExtent, isOperand_lower, isKind_lower, reaches_map_lower .blanks (by simp), asExtent]

theorem aliasExtent_lower :
    aliasExtent node.lower (siblings.map lower) = aliasExtent node siblings := by
  rw [aliasExtent, takesAlias_lower, reach_map_lower .blanks isSingleName_lower, aliasExtent]

theorem directionExtent_lower :
    directionExtent node.lower (siblings.map lower) = directionExtent node siblings := by
  rw [directionExtent, isOperand_lower, reach_map_lower .blanks (isWordIn_lower · _),
    directionExtent]

theorem commentExtent_lower :
    commentExtent node.lower (siblings.map lower) = commentExtent node siblings := by
  rw [commentExtent, isKind_lower, reach_map_lower .blanks isComment_lower, commentExtent]

theorem listTail_lower : listTail (siblings.map lower) = listTail siblings := by
  have hitem : ∀ others : List Node,
      reaches .all [(·.isMark ","), isItem] (others.map lower) =
        reaches .all [(·.isMark ","), isItem] others :=
    reaches_map_lower .all (by
      intro p hp node
      simp only [List.mem_cons, List.not_mem_nil, or_false] at hp
      rcases hp with rfl | rfl
      · exact isMark_lower node (by decide)
      · exact isItem_lower node)
  induction siblings using listTail.induct with
  | case1 => simp [listTail]
  | case2 node siblings n hn ih =>
    rw [List.map_cons, listTail, listTail, ← List.map_cons, hitem, hn]
    simp only [← List.map_drop, ih]
  | case3 node siblings hnone =>
    rw [List.map_cons, listTail, listTail, ← List.map_cons, hitem]
    cases hreaches : reaches .all [(·.isMark ","), isItem] (node :: siblings) with
    | none => rfl
    | some n =>
      cases n with
      | zero => rfl
      | succ n => exact absurd hreaches (hnone n)

theorem listExtent_lower : listExtent node.lower (siblings.map lower) = listExtent node siblings := by
  rw [listExtent, isItem_lower, listTail_lower, listExtent]

theorem enclose_lower (kind : Kind) :
    enclose kind node.lower (siblings.map lower) = (enclose kind node siblings).lower := by
  simp [enclose]

theorem attach_lower : attach node.lower (siblings.map lower) = (attach node siblings).lower := by
  cases node with
  | leaf kind text => cases kind <;> simp [attach]
  | group kind children => cases kind <;> simp [attach]

end

section

variable {extent : Node → List Node → Option Nat} {join : Node → List Node → Node}
  (hextent : ∀ node siblings, extent node.lower (siblings.map lower) = extent node siblings)
  (hjoin : ∀ node siblings, join node.lower (siblings.map lower) = (join node siblings).lower)
include hextent hjoin

theorem joinOnce_map_lower (siblings : List Node) :
    joinOnce extent join (siblings.map lower) = (joinOnce extent join siblings).map lower := by
  fun_induction joinOnce extent join siblings with
  | case1 => rw [List.map_nil, joinOnce]
  | case2 node siblings n hn ih =>
    rw [List.map_cons, joinOnce, hextent, hn]
    simp only [← List.map_take, ← List.map_drop, hjoin, ih, List.map_cons]
  | case3 node siblings hn ih =>
    rw [List.map_cons, joinOnce, hextent, hn]
    simp only [ih, List.map_cons]

theorem joinRepeatedly_map_lower (siblings : List Node) :
    joinRepeatedly extent join (siblings.map lower) =
      (joinRepeatedly extent join siblings).map lower := by
  fun_induction joinRepeatedly extent join siblings with
  | case1 => rw [List.map_nil, joinRepeatedly]
  | case2 => simp [joinRepeatedly]
  | case3 node next siblings n hn ih =>
    rw [List.map_cons, List.map_cons, joinRepeatedly, ← List.map_cons, hextent, hn]
    simp only [← List.map_take, ← List.map_drop, ← List.map_cons, hjoin, ih]
  | case4 node next siblings hn ih =>
    rw [List.map_cons, List.map_cons, joinRepeatedly, ← List.map_cons, hextent]
    split
    · next n hsome => exact absurd hsome (hn n)
    · rw [ih, List.map_cons]

end

theorem groupSigns_map_lower (preceded : Bool) (siblings : List Node) :
    groupSigns preceded (siblings.map lower) = (groupSigns preceded siblings).map lower := by
  fun_induction groupSigns preceded siblings with
  | case1 preceded sign operand siblings h ih =>
    rw [List.map_cons, List.map_cons, groupSigns, isSign_lower, isOperand_lower, if_pos h, ih,
      List.map_cons, ← enclose_lower, List.map_singleton]
  | case2 preceded sign operand siblings h ih =>
    rw [List.map_cons, List.map_cons, groupSigns, isSign_lower, isOperand_lower, if_neg h,
      isWhitespace_lower, isOperand_lower, ← List.map_cons, ih, List.map_cons]
  | case3 siblings preceded h =>
    match siblings with
    | [] => simp [groupSigns]
    | [node] => simp [groupSigns]
    | sign :: operand :: siblings => exact absurd rfl (h sign operand siblings)

theorem groupExpressions_map_lower (siblings : List Node) :
    groupExpressions (siblings.map lower) = (groupExpressions siblings).map lower := by
  unfold groupExpressions
  simp only [joinOnce_map_lower callExtent_lower (enclose_lower · · .function),
    joinOnce_map_lower identifierExtent_lower (enclose_lower · · .identifier),
    groupSigns_map_lower,
    joinRepeatedly_map_lower operationExtent_lower (enclose_lower · · .operation),
    joinOnce_map_lower comparisonExtent_lower (enclose_lower · · .comparison),
    joinRepeatedly_map_lower asExtent_lower (enclose_lower · · .identifier),
    joinOnce_map_lower aliasExtent_lower (enclose_lower · · .identifier),
    joinOnce_map_lower directionExtent_lower attach_lower,
    joinRepeatedly_map_lower commentExtent_lower attach_lower,
    joinOnce_map_lower listExtent_lower (enclose_lower · · .identifierList)]

theorem blockLength?_map_lower (depth : Nat) (siblings : List Node) :
    blockLength? depth (siblings.map lower) = blockLength? depth siblings := by
  induction siblings generalizing depth with
  | nil => rfl
  | cons node siblings ih =>
    rw [List.map_cons, blockLength?, blockLength?, isWord_lower, isWord_lower, ih, ih, ih]

theorem groupCases_map_lower (siblings : List Node) :
    groupCases (siblings.map lower) = (groupCases siblings).map lower := by
  fun_induction groupCases siblings with
  | case1 => simp [groupCases]
  | case2 node siblings hcase n hn ihinner ihrest =>
    rw [List.map_cons, groupCases, isWord_lower, if_pos hcase, blockLength?_map_lower, hn]
    simp only [← List.map_take, ← List.map_drop, ihinner, ihrest, groupExpressions_map_lower,
      List.map_cons, lower_group, List.map_append]
  | case3 node siblings hcase hn ih =>
    rw [List.map_cons, groupCases, isWord_lower, if_pos hcase, blockLength?_map_lower, hn]
    simp only [ih, List.map_cons]
  | case4 node siblings hcase ih =>
    rw [List.map_cons, groupCases, isWord_lower, if_neg hcase, ih, List.map_cons]

theorem groupLevel_map_lower (siblings : List Node) :
    groupLevel (siblings.map lower) = (groupLevel siblings).map lower := by
  rw [groupLevel, groupCases_map_lower, groupExpressions_map_lower, groupLevel]

theorem groupWheres_map_lower (siblings : List Node) :
    groupWheres (siblings.map lower) = (groupWheres siblings).map lower := by
  fun_induction groupWheres siblings with
  | case1 => simp [groupWheres]
  | case2 node siblings hwhere clause ih =>
    have hclause : (siblings.map lower).takeWhile (fun sibling => !sibling.endsWhere) =
        clause.map lower := by
      simp [List.takeWhile_map, Function.comp_def, clause]
    rw [List.map_cons, groupWheres, isWord_lower, if_pos hwhere, hclause]
    simp only [List.length_map, ← List.map_drop, ih, groupLevel_map_lower, List.map_cons,
      lower_group]
  | case3 node siblings hwhere ih =>
    rw [List.map_cons, groupWheres, isWord_lower, if_neg hwhere, ih, List.map_cons]

theorem groupRun_map_lower (siblings : List Node) :
    groupRun (siblings.map lower) = (groupRun siblings).map lower := by
  rw [groupRun, groupWheres_map_lower, groupLevel_map_lower, groupRun]

mutual

theorem groupInside_lower : ∀ node : Node, node.lower.groupInside = node.groupInside.lower
  | leaf kind text => by simp [groupInside]
  | group kind children => by
    have hother : ∀ others : List Node, (kind ≠ .parenthesis ∨ others = []) →
        (group kind others).groupInside = group kind others := by
      intro others h
      unfold groupInside
      split
      · next heq =>
        obtain ⟨rfl, rfl⟩ := Node.group.inj heq
        rcases h with h | h
        · exact absurd rfl h
        · cases h
      · rfl
    by_cases hkind : kind = .parenthesis
    · subst hkind
      cases children with
      | nil => rw [lower_group, List.map_nil, hother [] (Or.inr rfl), lower_group, List.map_nil]
      | cons opening siblings =>
        have hinside := groupInsideAll_map_lower siblings
        rw [lower_group, List.map_cons, groupInside, hinside, ← List.map_dropLast,
          groupRun_map_lower, groupInside, lower_group, List.map_cons, List.map_append,
          List.getLast?_map]
        cases siblings.getLast? <;> rfl
    · rw [lower_group, hother _ (Or.inl hkind), hother _ (Or.inl hkind), lower_group]

theorem groupInsideAll_map_lower : ∀ siblings : List Node,
    groupInsideAll (siblings.map lower) = (groupInsideAll siblings).map lower
  | [] => by simp [groupInsideAll]
  | node :: siblings => by
    rw [List.map_cons, groupInsideAll, groupInside_lower node, groupInsideAll_map_lower siblings,
      groupInsideAll, List.map_cons]

end

/-- A row in lower case is grouped like the row itself. -/
theorem groupAll_map_lower (siblings : List Node) :
    groupAll (siblings.map lower) = (groupAll siblings).map lower := by
  rw [groupAll, groupInsideAll_map_lower, groupRun_map_lower, groupAll]

end Node

end QueryLineage
