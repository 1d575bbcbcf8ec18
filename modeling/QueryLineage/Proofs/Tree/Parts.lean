import QueryLineage.Proofs.Tree.Barrier
import QueryLineage.Proofs.Tree.Written

/-!
# The parts of a row

How the parts between the barriers of a row are grouped: a name of one or more parts is an
identifier, two operands with an operator between them are a comparison, and an operand with a name
behind it, with or without `AS`, is an identifier again.
-/

namespace QueryLineage.Node

/-- The passes over one level behind those for calls and names, except the last. -/
def groupOperands (siblings : List Node) : List Node :=
  let siblings := joinRepeatedly operationExtent (enclose .operation) (groupSigns false siblings)
  let siblings := joinOnce comparisonExtent (enclose .comparison) siblings
  let siblings := joinRepeatedly asExtent (enclose .identifier) siblings
  let siblings := joinOnce aliasExtent (enclose .identifier) siblings
  let siblings := joinOnce directionExtent attach siblings
  joinRepeatedly commentExtent attach siblings

/-- The passes over one level behind those for calls and names, except those for comments and lists. -/
def groupNamed (siblings : List Node) : List Node :=
  let siblings := joinRepeatedly operationExtent (enclose .operation) (groupSigns false siblings)
  let siblings := joinOnce comparisonExtent (enclose .comparison) siblings
  let siblings := joinRepeatedly asExtent (enclose .identifier) siblings
  let siblings := joinOnce aliasExtent (enclose .identifier) siblings
  joinOnce directionExtent attach siblings

theorem groupOperands_eq (siblings : List Node) :
    groupOperands siblings = joinRepeatedly commentExtent attach (groupNamed siblings) := rfl

theorem groupItems_eq (siblings : List Node) :
    groupItems siblings = groupOperands (joinOnce identifierExtent (enclose .identifier)
      (joinOnce callExtent (enclose .function) siblings)) := rfl

section

variable {extent : Node → List Node → Option Nat} {join : Node → List Node → Node} {node : Node}

theorem joinOnce_singleton (h : extent node [] = none) : joinOnce extent join [node] = [node] := by
  rw [joinOnce_cons_of_none h, joinOnce_nil]

theorem joinRepeatedly_singleton : joinRepeatedly extent join [node] = [node] := by
  rw [joinRepeatedly]

end

theorem joinAliases_singleton (node : Node) :
    joinOnce directionExtent attach (joinOnce aliasExtent (enclose .identifier) [node]) = [node] := by
  rw [joinOnce_singleton (by rw [aliasExtent, reach, Option.filter_none]; exact ite_self _),
    joinOnce_singleton (by rw [directionExtent, reach]; exact ite_self _)]

theorem groupNamed_singleton (node : Node) : groupNamed [node] = [node] := by
  unfold groupNamed
  simp only [groupSigns, joinRepeatedly_singleton]
  rw [joinOnce_singleton (by rw [comparisonExtent, reaches, reach]; exact ite_self _),
    joinRepeatedly_singleton, joinAliases_singleton]

theorem groupOperands_singleton (node : Node) : groupOperands [node] = [node] := by
  rw [groupOperands_eq, groupNamed_singleton, joinRepeatedly_singleton]

theorem not_of_isOperand {node : Node} (h : node.isOperand = true) :
    node.isSign = false ∧ node.isWhitespace = false := by
  have hkind : ∀ kind, kind.isOperand = false → node.isKind kind = false := by
    intro kind hkind
    rw [← Bool.not_eq_true]
    intro hnode
    rw [isOperand, beq_iff_eq.1 hnode, hkind] at h
    cases h
  exact ⟨by rw [isSign, hkind .operator rfl, Bool.false_and], hkind .whitespace rfl⟩

theorem reach_space {p : Node → Bool} {node : Node} (hblank : node.isWhitespace = false)
    (siblings : List Node) :
    reach .blanks p (spaceNode :: node :: siblings) = if p node then some 2 else none := by
  have hspace : spaceNode.isFiller .blanks = true := rfl
  rw [reach, if_pos hspace, reach, if_neg (by simp [hblank])]
  cases p node <;> rfl

theorem reaches_spaces {middle right : Node} (hmiddle : middle.isWhitespace = false)
    (hright : right.isWhitespace = false) (p q : Node → Bool) :
    reaches .blanks [p, q] [spaceNode, middle, spaceNode, right] =
      if p middle && q right then some 4 else none := by
  rw [reaches, reach_space hmiddle]
  cases hp : p middle with
  | false => rfl
  | true =>
    rw [if_pos rfl]
    simp only [bind, Option.bind_some, List.drop_succ_cons, List.drop_zero, reaches,
      reach_space hright]
    cases q right <;> rfl

section Between

variable {left middle right : Node} (hleft : left.isOperand = true)
  (hmiddle : middle.isOperand = false) (hblank : middle.isWhitespace = false)
  (hsign : middle.isSign = false) (hright : right.isOperand = true)
include hleft hmiddle hblank hsign hright

/-- What is no operator between two operands makes no operation of them. -/
theorem joinOperations_between
    (hoperator : (middle.isKind .operator || middle.isKind .wildcard) = false) :
    joinRepeatedly operationExtent (enclose .operation)
      (groupSigns false [left, spaceNode, middle, spaceNode, right]) =
        [left, spaceNode, middle, spaceNode, right] := by
  obtain ⟨hleftSign, -⟩ := not_of_isOperand hleft
  obtain ⟨hrightSign, hrightBlank⟩ := not_of_isOperand hright
  have hnone : operationExtent left [spaceNode, middle, spaceNode, right] = none := by
    rw [operationExtent, reaches_spaces hblank hrightBlank, hoperator, Bool.false_and]
    exact ite_self _
  rw [groupSigns_cons hleftSign, groupSigns_cons inert_spaceNode.sign, groupSigns_cons hsign,
    groupSigns_cons inert_spaceNode.sign, groupSigns_cons hrightSign, groupSigns_nil,
    joinRepeatedly_cons_of_none hnone,
    joinRepeatedly_cons_of_none (operationExtent_of_not_operand rfl _),
    joinRepeatedly_cons_of_none (operationExtent_of_not_operand hmiddle _),
    joinRepeatedly_cons_of_none (operationExtent_of_not_operand rfl _), joinRepeatedly_singleton]

end Between

/-- A comparison operator makes a comparison of the operands beside it. -/
theorem groupOperands_comparison {left middle right : Node} (hleft : left.isOperand = true)
    (hmiddle : middle.kind = .comparisonOperator) (hright : right.isOperand = true) :
    groupOperands [left, spaceNode, middle, spaceNode, right] =
      [group .comparison [left, spaceNode, middle, spaceNode, right]] := by
  have hkind : ∀ kind, middle.isKind kind = (Kind.comparisonOperator == kind) := by
    intro kind
    rw [isKind, hmiddle]
  have hblank : middle.isWhitespace = false := hkind .whitespace
  have hextent : comparisonExtent left [spaceNode, middle, spaceNode, right] = some 4 := by
    rw [comparisonExtent, if_pos hleft, reaches_spaces hblank (not_of_isOperand hright).2, hkind, hright]
    rfl
  unfold groupOperands
  simp only
  rw [joinOperations_between hleft (by rw [isOperand, hmiddle]; rfl) hblank
    (by rw [isSign, hkind]; rfl) hright (by rw [hkind, hkind]; rfl), joinOnce_cons_of_some hextent]
  simp only [List.take_succ_cons, List.take_zero, List.drop_succ_cons, List.drop_zero, joinOnce_nil,
    joinRepeatedly_singleton, joinAliases_singleton, enclose]

/-- `AS` makes an identifier of the operand before it and what is named behind it. -/
theorem groupNamed_as {left right : Node} (hleft : left.isOperand = true)
    (hright : right.isAliasOrBody = true) :
    groupNamed [left, spaceNode, asNode, spaceNode, right] =
      [group .identifier [left, spaceNode, asNode, spaceNode, right]] := by
  have hoperand : right.isOperand = true := by
    unfold isAliasOrBody at hright
    unfold isOperand
    split at hright <;> simp_all [Kind.isOperand]
  obtain ⟨-, hblank⟩ := not_of_isOperand hoperand
  have hword : asNode.isWord "AS" = true := by decide +kernel
  have hcompared : comparisonExtent left [spaceNode, asNode, spaceNode, right] = none := by
    rw [comparisonExtent, reaches_spaces rfl hblank]
    exact ite_self _
  have hextent : asExtent left [spaceNode, asNode, spaceNode, right] = some 4 := by
    rw [asExtent, if_pos (by rw [hleft]; rfl), reaches_spaces rfl hblank, hword, hright]
    rfl
  unfold groupNamed
  simp only
  rw [joinOperations_between hleft rfl rfl rfl hoperand rfl, joinOnce_cons_of_none hcompared,
    joinOnce_cons_of_none (comparisonExtent_of_not_operand rfl _),
    joinOnce_cons_of_none (comparisonExtent_of_not_operand rfl _),
    joinOnce_cons_of_none (comparisonExtent_of_not_operand rfl _),
    joinOnce_singleton (by rw [comparisonExtent, reaches, reach]; exact ite_self _),
    joinRepeatedly_cons_of_some hextent (by simp)]
  simp only [List.take_succ_cons, List.take_zero, List.drop_succ_cons, List.drop_zero,
    joinRepeatedly_singleton, joinAliases_singleton, enclose]

theorem groupOperands_as {left right : Node} (hleft : left.isOperand = true)
    (hright : right.isAliasOrBody = true) :
    groupOperands [left, spaceNode, asNode, spaceNode, right] =
      [group .identifier [left, spaceNode, asNode, spaceNode, right]] := by
  rw [groupOperands_eq, groupNamed_as hleft hright, joinRepeatedly_singleton]

theorem groupOperands_alias {left right : Node} (hleft : left.takesAlias = true)
    (hright : right.isSingleName = true) :
    groupOperands [left, spaceNode, right] = [group .identifier [left, spaceNode, right]] := by
  have hleftOperand : left.isOperand = true := by
    unfold takesAlias at hleft
    unfold isOperand
    split at hleft <;> simp_all [Kind.isOperand]
  have hkind : ∀ kind, right.isKind kind = (Kind.identifier == kind) := by
    intro kind
    rw [isKind, beq_iff_eq.1 (Bool.and_eq_true_iff.1 hright).1]
  have hrightOperand : right.isOperand = true := by
    rw [isOperand, beq_iff_eq.1 (Bool.and_eq_true_iff.1 hright).1]
    rfl
  obtain ⟨hleftSign, -⟩ := not_of_isOperand hleftOperand
  obtain ⟨hrightSign, hblank⟩ := not_of_isOperand hrightOperand
  have hword : right.isWord "AS" = false := by
    rw [isWord, isKeyword, beq_iff_eq.1 (Bool.and_eq_true_iff.1 hright).1]
    rfl
  have hnone : ∀ {p q : Node → Bool}, p right = false →
      reaches .blanks [p, q] [spaceNode, right] = none := by
    intro p q hp
    rw [reaches, reach_space hblank, hp]
    rfl
  have hextent : aliasExtent left [spaceNode, right] = some 2 := by
    rw [aliasExtent, if_pos hleft, reach_space hblank, hright]
    rfl
  unfold groupOperands
  simp only
  rw [groupSigns_cons hleftSign, groupSigns_cons inert_spaceNode.sign, groupSigns_cons hrightSign,
    groupSigns_nil,
    joinRepeatedly_cons_of_none (by
      rw [operationExtent, hnone (Bool.or_eq_false_iff.2 ⟨hkind .operator, hkind .wildcard⟩)]
      exact ite_self _),
    joinRepeatedly_cons_of_none (operationExtent_of_not_operand rfl _), joinRepeatedly_singleton,
    joinOnce_cons_of_none (by
      rw [comparisonExtent, hnone (hkind .comparisonOperator)]
      exact ite_self _),
    joinOnce_cons_of_none (comparisonExtent_of_not_operand rfl _),
    joinOnce_singleton (by rw [comparisonExtent, reaches, reach]; exact ite_self _),
    joinRepeatedly_cons_of_none (by rw [asExtent, hnone hword]; exact ite_self _),
    joinRepeatedly_cons_of_none (asExtent_of_not_operand rfl rfl _), joinRepeatedly_singleton,
    joinOnce_cons_of_some hextent]
  simp only [List.take_succ_cons, List.take_zero, List.drop_succ_cons, List.drop_zero, joinOnce_nil,
    enclose]
  rw [joinOnce_singleton (by rw [directionExtent, reach]; exact ite_self _), joinRepeatedly_singleton]

def identifierNode (name : DottedName) : Node := group .identifier (dotted name)

theorem joinOnce_callExtent_of_forall {siblings : List Node}
    (h : ∀ node ∈ siblings, node.isKind .parenthesis = false) :
    joinOnce callExtent (enclose .function) siblings = siblings := by
  have hnone : ∀ siblings : List Node, (∀ node ∈ siblings, node.isKind .parenthesis = false) →
      reach .blanks (isKind .parenthesis) siblings = none := by
    intro siblings h
    induction siblings with
    | nil => rfl
    | cons node siblings ih =>
      have hrest := ih fun other hother => h other (List.mem_cons_of_mem _ hother)
      simp [reach, hrest, h node List.mem_cons_self]
  induction siblings with
  | nil => rw [joinOnce_nil]
  | cons node siblings ih =>
    have hrest : ∀ other ∈ siblings, other.isKind .parenthesis = false :=
      fun other hother => h other (List.mem_cons_of_mem _ hother)
    rw [joinOnce_cons_of_none (by rw [callExtent, hnone siblings hrest]; exact ite_self _), ih hrest]

theorem dottedExtent_parts_append (parts : List PlainName) (rest : List Node) :
    dottedExtent ((parts.flatMap fun part => [dotNode, nameNode part.text]) ++ rest) =
      (parts.flatMap fun part => [dotNode, nameNode part.text]).length + dottedExtent rest := by
  induction parts with
  | nil => exact (Nat.zero_add _).symm
  | cons part parts ih =>
    have hpart : (dotNode.isMark "." && (nameNode part.text).isNamePart) = true := rfl
    rw [List.flatMap_cons, List.append_assoc, List.cons_append, List.cons_append, List.nil_append,
      dottedExtent, if_pos hpart, ih, List.length_append]
    exact (Nat.add_right_comm _ _ _).trans (congrArg (· + _) (Nat.add_comm _ _))

theorem dottedExtent_of_not_dot {rest : List Node}
    (hrest : ∀ node ∈ rest.head?, node.isMark "." = false) : dottedExtent rest = 0 := by
  match rest with
  | [] => rfl
  | [_] => rfl
  | node :: next :: rest => rw [dottedExtent, if_neg (by simp [hrest node rfl])]

theorem dottedExtent_parts (parts : List PlainName) {rest : List Node}
    (hrest : ∀ node ∈ rest.head?, node.isMark "." = false) :
    dottedExtent ((parts.flatMap fun part => [dotNode, nameNode part.text]) ++ rest) =
      (parts.flatMap fun part => [dotNode, nameNode part.text]).length := by
  rw [dottedExtent_parts_append, dottedExtent_of_not_dot hrest, Nat.add_zero]

theorem joinOnce_dotted (name : DottedName) {rest : List Node}
    (hrest : ∀ node ∈ rest.head?, node.isMark "." = false) :
    joinOnce identifierExtent (enclose .identifier) (dotted name ++ rest) =
      identifierNode name :: joinOnce identifierExtent (enclose .identifier) rest := by
  have hextent : identifierExtent (nameNode name.first.text)
      ((name.others.flatMap fun part => [dotNode, nameNode part.text]) ++ rest) =
        some (name.others.flatMap fun part => [dotNode, nameNode part.text]).length := by
    rw [identifierExtent, dottedExtent_parts _ hrest]
    rfl
  rw [dotted, List.cons_append, joinOnce_cons_of_some hextent, List.take_left, List.drop_left]
  rfl

theorem isKind_parenthesis_of_mem_dotted (name : DottedName) :
    ∀ node ∈ dotted name, node.isKind .parenthesis = false := by
  intro node hnode
  rcases List.mem_cons.1 hnode with rfl | hnode
  · rfl
  · obtain ⟨part, -, hpart⟩ := List.mem_flatMap.1 hnode
    simp only [List.mem_cons, List.not_mem_nil, or_false] at hpart
    rcases hpart with rfl | rfl <;> rfl

theorem groupItems_dotted (name : DottedName) :
    groupItems (dotted name) = [identifierNode name] := by
  have hjoined := @joinOnce_dotted name [] (by simp)
  rw [List.append_nil, joinOnce_nil] at hjoined
  rw [groupItems_eq, joinOnce_callExtent_of_forall (isKind_parenthesis_of_mem_dotted name), hjoined,
    groupOperands_singleton]

theorem groupItems_literal (text : String) : groupItems [leaf .literal text] = [leaf .literal text] := by
  rw [groupItems_eq, joinOnce_singleton rfl, joinOnce_singleton rfl, groupOperands_singleton]

theorem groupItems_parentheses (children : List Node) :
    groupItems [group .parenthesis children] = [group .parenthesis children] := by
  rw [groupItems_eq, joinOnce_singleton rfl, joinOnce_singleton rfl, groupOperands_singleton]

section Comparisons

variable (name : DottedName) (operator : Operator)

/-- A name, an operator and a right side that is one operand behind the pass for names. -/
theorem groupItems_comparison {right : List Node} {operand : Node}
    (hright : ∀ node ∈ right, node.isKind .parenthesis = false)
    (hjoined : joinOnce identifierExtent (enclose .identifier) right = [operand])
    (hoperand : operand.isOperand = true) :
    groupItems (dotted name ++ spaceNode :: operatorNode operator :: spaceNode :: right) =
      [group .comparison
        [identifierNode name, spaceNode, operatorNode operator, spaceNode, operand]] := by
  have hcalls : ∀ node ∈ dotted name ++ spaceNode :: operatorNode operator :: spaceNode :: right,
      node.isKind .parenthesis = false := by
    intro node hnode
    rcases List.mem_append.1 hnode with hnode | hnode
    · exact isKind_parenthesis_of_mem_dotted name node hnode
    · simp only [List.mem_cons] at hnode
      rcases hnode with rfl | rfl | rfl | hnode
      · rfl
      · rfl
      · rfl
      · exact hright node hnode
  have hspace : ∀ node ∈ (spaceNode :: operatorNode operator :: spaceNode :: right).head?,
      node.isMark "." = false := by
    rintro node ⟨⟩
    rfl
  rw [groupItems_eq, joinOnce_callExtent_of_forall hcalls, joinOnce_dotted name hspace,
    joinOnce_cons_of_none (identifierExtent_of_not_operand rfl _),
    joinOnce_cons_of_none (identifierExtent_of_not_operand rfl _),
    joinOnce_cons_of_none (identifierExtent_of_not_operand rfl _), hjoined,
    groupOperands_comparison rfl rfl hoperand]

theorem groupItems_compareValue (value : Value) :
    groupItems (dotted name ++ [spaceNode, operatorNode operator, spaceNode, valueNode value]) =
      [group .comparison
        [identifierNode name, spaceNode, operatorNode operator, spaceNode, valueNode value]] :=
  groupItems_comparison name operator (by simp; rfl) (joinOnce_singleton rfl) rfl

theorem groupItems_compareName (other : DottedName) :
    groupItems (dotted name ++ spaceNode :: operatorNode operator :: spaceNode :: dotted other) =
      [group .comparison
        [identifierNode name, spaceNode, operatorNode operator, spaceNode, identifierNode other]] := by
  have hjoined := @joinOnce_dotted other [] (by simp)
  rw [List.append_nil, joinOnce_nil] at hjoined
  exact groupItems_comparison name operator (isKind_parenthesis_of_mem_dotted other) hjoined rfl

end Comparisons

/-- A part without `CASE` that is grouped to one node. -/
theorem groupLevel_of_groupItems {siblings : List Node} {node : Node}
    (hcases : ∀ sibling ∈ siblings, sibling.isWord "CASE" = false)
    (h : groupItems siblings = [node]) : groupLevel siblings = [node] := by
  rw [groupLevel_eq hcases, groupExpressions_eq, h, joinOnce_singleton (listExtent_nil node)]

end QueryLineage.Node
