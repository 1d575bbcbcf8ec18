import QueryLineage.Proofs.Outcome
import QueryLineage.Proofs.Tree.Formed
import QueryLineage.Proofs.Tree.Semicolon
import QueryLineage.Proofs.Tree.Single

/-!
# The shapes of groups

Each kind of group has a shape: what its children are, in which order, and what may stand between
them. The passes that build groups look at their own level only, and a group that has been built is
taken apart by no later pass; only identifiers grow, at their end. So every node of a tree has the
shape of its kind, however deep it lies.
-/

namespace QueryLineage.Node

/-- The nodes satisfy the tests one after the other, with nothing but filler before each. -/
def Spaced (filler : Filler) : List (Node → Bool) → List Node → Prop
  | [], nodes => nodes = []
  | p :: ps, nodes => ∃ skipped found rest, nodes = skipped ++ found :: rest ∧
      (∀ other ∈ skipped, other.isFiller filler = true) ∧ p found = true ∧ Spaced filler ps rest

/-- Dots, each with a part of a name right behind it. -/
def Dotted : List Node → Prop
  | [] => True
  | dot :: part :: nodes => dot.isMark "." = true ∧ part.isNamePart = true ∧ Dotted nodes
  | _ => False

/-- Two or more items, with a comma between any two neighbours. -/
inductive Alternating : List Node → Prop
  | two {first comma last : Node} (hfirst : first.isItem = true) (hcomma : comma.isMark "," = true)
      (hlast : last.isItem = true) : Alternating [first, comma, last]
  | more {first comma : Node} {rest : List Node} (hfirst : first.isItem = true)
      (hcomma : comma.isMark "," = true) (hrest : Alternating rest) :
      Alternating (first :: comma :: rest)

/-- The children that a group of a kind can have. -/
inductive Shape : Kind → List Node → Prop
  | statement {children : List Node} (hwhere : ∀ child ∈ children, child.isWord "WHERE" = false)
      (hsemicolon : ∀ child ∈ children.dropLast, child.isMark ";" = false) :
      Shape .statement children
  | parenthesis {inner : List Node} (hopening : ∀ child ∈ inner, child.isMark "(" = false)
      (hclosing : ∀ child ∈ inner, child.isMark ")" = false)
      (hwhere : ∀ child ∈ inner, child.isWord "WHERE" = false) :
      Shape .parenthesis (openingMark :: (inner ++ [closingMark]))
  | whereClause {keyword : Node} {inner : List Node} (hkeyword : keyword.isWord "WHERE" = true)
      (hsemicolon : ∀ child ∈ inner, child.isMark ";" = false)
      (hterminator : ∀ child ∈ inner, child.isWordIn Keyword.whereTerminators = false) :
      Shape .whereClause (keyword :: inner)
  | caseBlock {opening ending : Node} {inner : List Node} (hopening : opening.isWord "CASE" = true)
      (hending : ending.isWord "END" = true) :
      Shape .caseBlock (opening :: (inner ++ [ending]))
  | call {called : Node} {arguments window : List Node} (hcalled : called.kind = .name)
      (harguments : Spaced .blanks [isKind .parenthesis] arguments)
      (hwindow : window = [] ∨ Spaced .blanks
        [(·.isWord "OVER"), fun node => node.isKind .parenthesis || node.isKind .name] window) :
      Shape .function (called :: (arguments ++ window))
  | comparison {left : Node} {right : List Node} (hleft : left.isOperand = true)
      (hright : Spaced .blanks [isKind .comparisonOperator, isOperand] right) :
      Shape .comparison (left :: right)
  | signed {sign operand : Node} (hsign : sign.isSign = true) (hoperand : operand.isOperand = true) :
      Shape .operation [sign, operand]
  | operation {left : Node} {right : List Node} (hleft : left.isOperand = true)
      (hright : Spaced .blanks [fun node => node.isKind .operator || node.isKind .wildcard,
        isOperand] right) :
      Shape .operation (left :: right)
  -- comments and blanks may stand anywhere in a list
  | identifierList {children : List Node}
      (h : Alternating (children.filter fun child => !child.isFiller .all)) :
      Shape .identifierList children
  | dotted {first : Node} {rest : List Node}
      (hfirst : first.kind = .name ∨ first.kind = .function ∧ rest ≠ []) (hrest : Dotted rest) :
      Shape .identifier (first :: rest)
  | named {first : Node} {rest : List Node}
      (hfirst : first.isOperand = true ∨ first.kind = .comparison)
      (hrest : Spaced .blanks [(·.isWord "AS"), isAliasOrBody] rest) :
      Shape .identifier (first :: rest)
  | aliased {first : Node} {rest : List Node} (hfirst : first.takesAlias = true)
      (hrest : Spaced .blanks [isSingleName] rest) (hblank : 1 < rest.length) :
      Shape .identifier (first :: rest)
  | directed {first : Node} {rest : List Node} (hfirst : first.isOperand = true)
      (hrest : Spaced .blanks [(·.isWordIn ["ASC", "DESC"])] rest) :
      Shape .identifier (first :: rest)
  -- an identifier takes a direction or a comment behind it
  | extended {children rest : List Node} (h : Shape .identifier children)
      (hrest : Spaced .blanks [(·.isWordIn ["ASC", "DESC"])] rest ∨
        Spaced .blanks [isComment] rest) :
      Shape .identifier (children ++ rest)

/-- A group has the shape of its kind, and a leaf is of none of the kinds of groups. -/
def Shaped : Node → Prop
  | leaf kind _ => kind.isGroup = false
  | group kind children => Shape kind children

section

variable {filler : Filler} {node : Node} {siblings : List Node} {n : Nat}

theorem spaced_take_of_reach {p : Node → Bool} (h : reach filler p siblings = some n) :
    Spaced filler [p] (siblings.take n) := by
  obtain ⟨skipped, found, rest, rfl, rfl, hskipped, hfound⟩ := exists_of_reach h
  refine ⟨skipped, found, [], ?_, hskipped, hfound, rfl⟩
  rw [List.take_length_add_append]
  rfl

theorem spaced_take_of_reaches {ps : List (Node → Bool)}
    (h : reaches filler ps siblings = some n) : Spaced filler ps (siblings.take n) := by
  induction ps generalizing siblings n with
  | nil =>
    cases h
    exact List.take_zero
  | cons p ps ih =>
    rw [reaches] at h
    obtain ⟨m, hm, h⟩ := Option.bind_eq_some_iff.1 h
    obtain ⟨k, hk, h⟩ := Option.bind_eq_some_iff.1 h
    cases h
    obtain ⟨skipped, found, rest, rfl, rfl, hskipped, hfound⟩ := exists_of_reach hm
    have hdrop : (skipped ++ found :: rest).drop (skipped.length + 1) = rest := by
      rw [List.drop_length_add_append]
      rfl
    rw [hdrop] at hk
    refine ⟨skipped, found, rest.take k, ?_, hskipped, hfound, ih hk⟩
    rw [Nat.add_assoc, List.take_length_add_append, Nat.add_comm 1, List.take_succ_cons]

theorem dotted_take_dottedExtent (siblings : List Node) :
    Dotted (siblings.take (dottedExtent siblings)) := by
  fun_induction dottedExtent siblings with
  | case1 dot part siblings h ih =>
    rw [Bool.and_eq_true] at h
    exact ⟨h.1, h.2, ih⟩
  | case2 => trivial
  | case3 => simp [Dotted]

/-- What stands in a list, without what is stepped over. -/
theorem Spaced.filter_eq {p q : Node → Bool} (h : Spaced .all [p, q] siblings)
    (hp : ∀ node, p node = true → node.isFiller .all = false)
    (hq : ∀ node, q node = true → node.isFiller .all = false) :
    ∃ first second, p first = true ∧ q second = true ∧
      siblings.filter (fun child => !child.isFiller .all) = [first, second] := by
  obtain ⟨skipped, first, _, rfl, hskipped, hfirst, between, second, _, rfl, hbetween, hsecond,
    rfl⟩ := h
  have hnone : ∀ nodes : List Node, (∀ node ∈ nodes, node.isFiller .all = true) →
      nodes.filter (fun child => !child.isFiller .all) = [] := by
    intro nodes hnodes
    exact List.filter_eq_nil_iff.2 fun node hnode => by simp [hnodes node hnode]
  refine ⟨first, second, hfirst, hsecond, ?_⟩
  rw [List.filter_append, List.filter_cons, List.filter_append, List.filter_cons, List.filter_nil,
    hnone skipped hskipped, hnone between hbetween, hp first hfirst, hq second hsecond]
  rfl

/-- The induction is on what is left behind the commas and items that have been counted. -/
theorem alternating_of_listTail (hnode : node.isItem = true) (htail : listTail siblings ≠ 0) :
    Alternating
      (node :: (siblings.take (listTail siblings)).filter fun child => !child.isFiller .all) := by
  fun_induction listTail siblings generalizing node with
  | case1 => exact absurd rfl htail
  | case2 first siblings n hreach ih =>
    have hcomma (node : Node) (h : node.isMark "," = true) : node.isFiller .all = false := by
      have hkind : node.kind = .punctuation := beq_iff_eq.1 (Bool.and_eq_true _ _ ▸ h).1
      simp [isWhitespace, isComment, hkind]
    obtain ⟨comma, item, hmark, hitem, hfilter⟩ := (spaced_take_of_reaches hreach).filter_eq hcomma
      fun node h => (not_filler_of_isItem h).1
    have hsplit : (first :: siblings).take (n + 1 + listTail (siblings.drop n)) =
        (first :: siblings).take (n + 1) ++
          (siblings.drop n).take (listTail (siblings.drop n)) := by
      rw [List.take_add, List.drop_succ_cons]
    rw [hsplit, List.filter_append, hfilter]
    by_cases hlast : listTail (siblings.drop n) = 0
    · rw [hlast, List.take_zero]
      exact .two hnode hmark hitem
    · exact .more hnode hmark (ih hitem hlast)
  | case3 => exact absurd rfl htail

end

section

variable {node : Node} {siblings : List Node} {n : Nat}

theorem shaped_call (h : callExtent node siblings = some n) :
    (enclose .function node (siblings.take n)).Shaped := by
  unfold callExtent at h
  split at h
  case isFalse => cases h
  next hname =>
  obtain ⟨m, hm, rfl⟩ := Option.map_eq_some_iff.1 h
  rw [List.take_add]
  refine Shape.call (beq_iff_eq.1 hname) (spaced_take_of_reach hm) ?_
  cases hwindow : windowExtent (siblings.drop m) with
  | none => exact Or.inl List.take_zero
  | some k => exact Or.inr (spaced_take_of_reaches hwindow)

theorem shaped_identifier (h : identifierExtent node siblings = some n) :
    (enclose .identifier node (siblings.take n)).Shaped := by
  unfold identifierExtent at h
  dsimp only at h
  split at h
  case isFalse => cases h
  next hnode =>
  cases h
  refine Shape.dotted ?_ (dotted_take_dottedExtent siblings)
  simp only [isKind, Bool.or_eq_true, Bool.and_eq_true, beq_iff_eq, bne_iff_ne] at hnode
  rcases hnode with hnode | ⟨hcall, hdots⟩
  · exact Or.inl hnode
  · refine Or.inr ⟨hcall, fun hnil => ?_⟩
    rcases List.take_eq_nil_iff.1 hnil with hzero | rfl
    · exact hdots hzero
    · exact hdots rfl

theorem shaped_operation (h : operationExtent node siblings = some n) :
    (enclose .operation node (siblings.take n)).Shaped := by
  unfold operationExtent at h
  split at h
  · next hnode => exact Shape.operation hnode (spaced_take_of_reaches h)
  · cases h

theorem shaped_comparison (h : comparisonExtent node siblings = some n) :
    (enclose .comparison node (siblings.take n)).Shaped := by
  unfold comparisonExtent at h
  split at h
  · next hnode => exact Shape.comparison hnode (spaced_take_of_reaches h)
  · cases h

theorem shaped_named (h : asExtent node siblings = some n) :
    (enclose .identifier node (siblings.take n)).Shaped := by
  unfold asExtent at h
  split at h
  · next hnode =>
    refine Shape.named ?_ (spaced_take_of_reaches h)
    rw [Bool.or_eq_true] at hnode
    exact hnode.imp_right beq_iff_eq.1
  · cases h

theorem shaped_aliased (h : aliasExtent node siblings = some n) :
    (enclose .identifier node (siblings.take n)).Shaped := by
  unfold aliasExtent at h
  split at h
  · next hnode =>
    obtain ⟨hreach, hblank⟩ := Option.filter_eq_some_iff.1 h
    refine Shape.aliased hnode (spaced_take_of_reach hreach) ?_
    rw [List.length_take, Nat.min_eq_left (reach_le_length hreach)]
    exact of_decide_eq_true hblank
  · cases h

theorem shaped_listed (h : listExtent node siblings = some n) :
    (enclose .identifierList node (siblings.take n)).Shaped := by
  unfold listExtent at h
  split at h
  · next hnode =>
    rw [Bool.and_eq_true, bne_iff_ne] at hnode
    cases h
    refine Shape.identifierList ?_
    rw [List.filter_cons, if_pos (by simp [(not_filler_of_isItem hnode.1).1])]
    exact alternating_of_listTail hnode.1 hnode.2
  · cases h

/-- What is attached to an identifier extends it; another node becomes the first part of one. -/
theorem shaped_attach (hnode : node.Shaped)
    (hrest : Spaced .blanks [(·.isWordIn ["ASC", "DESC"])] siblings ∨
      Spaced .blanks [isComment] siblings)
    (hfirst : node.kind ≠ .identifier → node.isOperand = true ∧
      Spaced .blanks [(·.isWordIn ["ASC", "DESC"])] siblings) :
    (attach node siblings).Shaped := by
  unfold attach
  split
  · exact Shape.extended hnode hrest
  · cases hnode
  · next hgroup hleaf =>
    have hkind : node.kind ≠ .identifier := by
      intro hkind
      cases node with
      | leaf kind text => exact hleaf text (congrArg (leaf · text) hkind)
      | group kind children => exact hgroup children (congrArg (group · children) hkind)
    exact Shape.directed (hfirst hkind).1 (hfirst hkind).2

theorem shaped_directed (hnode : node.Shaped) (h : directionExtent node siblings = some n) :
    (attach node (siblings.take n)).Shaped := by
  unfold directionExtent at h
  split at h
  · next hoperand =>
    have hrest := spaced_take_of_reach h
    exact shaped_attach hnode (Or.inl hrest) fun _ => ⟨hoperand, hrest⟩
  · cases h

theorem shaped_commented (hnode : node.Shaped) (h : commentExtent node siblings = some n) :
    (attach node (siblings.take n)).Shaped := by
  unfold commentExtent at h
  split at h
  · next hkind =>
    exact shaped_attach hnode (Or.inr (spaced_take_of_reach h)) fun hne =>
      absurd (beq_iff_eq.1 hkind) hne
  · cases h

end

/-- Every group that is made has the shape of its kind. -/
theorem closed_shaped : Closed (Everywhere Shaped) where
  call node siblings n hextent hnode hsiblings := .enclose (shaped_call hextent) hnode hsiblings
  identifier node siblings n hextent hnode hsiblings :=
    .enclose (shaped_identifier hextent) hnode hsiblings
  sign sign operand hsign hoperand hnode hother := by
    refine .group (Shape.signed hsign hoperand) fun child hchild => ?_
    simp only [List.mem_cons, List.not_mem_nil, or_false] at hchild
    rcases hchild with rfl | rfl
    · exact hnode
    · exact hother
  operation node siblings n hextent hnode hsiblings :=
    .enclose (shaped_operation hextent) hnode hsiblings
  comparison node siblings n hextent hnode hsiblings :=
    .enclose (shaped_comparison hextent) hnode hsiblings
  named node siblings n hextent hnode hsiblings := .enclose (shaped_named hextent) hnode hsiblings
  aliased node siblings n hextent hnode hsiblings :=
    .enclose (shaped_aliased hextent) hnode hsiblings
  directed node siblings n hextent hnode hsiblings :=
    .attach (shaped_directed hnode.here hextent) hnode hsiblings
  commented node siblings n hextent hnode hsiblings :=
    .attach (shaped_commented hnode.here hextent) hnode hsiblings
  listed node siblings n hextent hnode hsiblings :=
    .enclose (shaped_listed hextent) hnode hsiblings
  caseBlock node inner ending hopening hending hnode hinner hclosing := by
    refine .group (Shape.caseBlock hopening hending) fun child hchild => ?_
    rcases List.mem_cons.1 hchild with rfl | hchild
    · exact hnode
    · rcases List.mem_append.1 hchild with hchild | hchild
      · exact hinner child hchild
      · rwa [List.mem_singleton.1 hchild]
  clause node inner hword hends hnode hinner := by
    refine .group (Shape.whereClause hword (fun child hchild => ?_) fun child hchild => ?_)
      fun child hchild => ?_
    · exact (Bool.or_eq_false_iff.1 (hends child hchild)).1
    · exact (Bool.or_eq_false_iff.1 (hends child hchild)).2
    · rcases List.mem_cons.1 hchild with rfl | hchild
      · exact hnode
      · exact hinner child hchild

/-- What holds of every group and of the nodes of a row holds of what the row is grouped to. -/
theorem forall_mem_groupAll_of_groups {P : Node → Prop}
    (hgroup : ∀ kind children, kind.isGroup = true → P (group kind children))
    {siblings : List Node} (h : ∀ node ∈ siblings, P node) : ∀ node ∈ groupAll siblings, P node := by
  rw [groupAll, groupInsideAll_eq_map]
  apply (closed_of_groups hgroup).groupRun
  intro node hnode
  obtain ⟨child, hchild, rfl⟩ := List.mem_map.1 hnode
  unfold groupInside
  split
  · exact hgroup _ _ rfl
  · exact h _ hchild

theorem not_where_of_mem_groupWheres (siblings : List Node) :
    ∀ node ∈ groupWheres siblings, node.isWord "WHERE" = false := by
  fun_induction groupWheres siblings with
  | case1 => simp
  | case2 node siblings _ clause ih =>
    intro other hother
    rcases List.mem_cons.1 hother with rfl | hother
    · exact isWord_group rfl _ _
    · exact ih other hother
  | case3 node siblings hnot ih =>
    intro other hother
    rcases List.mem_cons.1 hother with rfl | hother
    · simpa using hnot
    · exact ih other hother

theorem not_where_of_mem_groupAll (siblings : List Node) :
    ∀ node ∈ groupAll siblings, node.isWord "WHERE" = false :=
  (closed_of_groups fun _ children hkind => isWord_group hkind children "WHERE").groupLevel _
    (not_where_of_mem_groupWheres _)

theorem shaped_groupAll {nodes : List Node} (h : ∀ node ∈ nodes, Bracketed node) :
    ∀ node ∈ groupAll nodes, Everywhere Shaped node := by
  have hlexeme : ∀ lexeme : Lexeme, lexeme.kind.isGroup = false → True →
      Everywhere Shaped lexeme.toNode := fun lexeme hkind _ => .leaf hkind
  refine closed_shaped.groupAll hlexeme (fun inner hopening hclosing hinner => ?_) h
    fun _ _ => trivial
  have hmark (mark : String) (hnot : ∀ node ∈ inner, node.isMark mark = false) :
      ∀ node ∈ groupAll inner, node.isMark mark = false :=
    forall_mem_groupAll_of_groups (fun _ children hkind => isMark_group hkind children mark) hnot
  refine .group (Shape.parenthesis (hmark "(" hopening) (hmark ")" hclosing)
    (not_where_of_mem_groupAll inner)) fun child hchild => ?_
  rcases List.mem_cons.1 hchild with rfl | hchild
  · exact .leaf rfl
  · rcases List.mem_append.1 hchild with hchild | hchild
    · exact hinner child hchild
    · rw [List.mem_singleton.1 hchild]
      exact .leaf rfl

theorem not_semicolon_of_mem_dropLast {siblings piece : List Node}
    (h : piece ∈ cutAtSemicolons siblings) : ∀ node ∈ piece.dropLast, node.isMark ";" = false := by
  induction siblings generalizing piece with
  | nil =>
    rw [List.mem_singleton.1 h]
    simp
  | cons first siblings ih =>
    rw [cutAtSemicolons] at h
    split at h
    · rcases List.mem_cons.1 h with rfl | h
      · simp
      · exact ih h
    · next hfirst =>
      split at h
      · rw [List.mem_singleton.1 h]
        simp
      · next next pieces hcut =>
        rcases List.mem_cons.1 h with rfl | h
        · intro node hnode
          cases next with
          | nil => simp at hnode
          | cons second rest =>
            rw [List.dropLast_cons_cons] at hnode
            rcases List.mem_cons.1 hnode with rfl | hnode
            · simpa using hfirst
            · exact ih (hcut ▸ List.mem_cons_self) node hnode
        · exact ih (hcut ▸ List.mem_cons_of_mem _ h)

/-- A semicolon still ends its piece once that has been grouped. -/
theorem not_semicolon_of_mem_dropLast_groupAll {piece : List Node}
    (hbracketed : ∀ node ∈ piece, Bracketed node)
    (h : ∀ node ∈ piece.dropLast, node.isMark ";" = false) :
    ∀ node ∈ (groupAll piece).dropLast, node.isMark ";" = false := by
  have hkept : ∀ nodes : List Node, (∀ node ∈ nodes, node.isMark ";" = false) →
      ∀ node ∈ groupAll nodes, node.isMark ";" = false := fun nodes =>
    forall_mem_groupAll_of_groups fun _ children hkind => isMark_group hkind children ";"
  rcases List.eq_nil_or_concat piece with rfl | ⟨front, last, rfl⟩
  · exact fun node hnode => hkept [] (by simp) node ((List.dropLast_sublist _).subset hnode)
  rw [List.concat_eq_append] at hbracketed h ⊢
  rw [List.dropLast_concat] at h
  by_cases hlast : last.isMark ";" = true
  · obtain rfl : last = mark ";" := by
      cases hbracketed last (by simp) with
      | @lexeme lexeme _ =>
        rw [Lexeme.eq_of_isMark hlast]
        rfl
      | parentheses _ _ _ => cases hlast
    rw [groupAll_concat, List.dropLast_concat]
    exact hkept front h
  · intro node hnode
    refine hkept _ (fun other hother => ?_) node ((List.dropLast_sublist _).subset hnode)
    rcases List.mem_append.1 hother with hother | hother
    · exact h other hother
    · rw [List.mem_singleton.1 hother]
      simpa using hlast

/-- In every tree that is read from a text, at any depth, every node has the shape of its kind. -/
theorem shaped_of_statementsOfText {sql : String} {stripComments : Bool} {statements : List Node}
    (h : statementsOfText sql stripComments = .ok statements) :
    ∀ statement ∈ statements, Everywhere Shaped statement := by
  obtain ⟨lexemes, nodes, hlexemes, hnodes, rfl⟩ := statementsOfText_eq_ok_iff.1 h
  have hbracketed := fun node hnode => (bracketed_groupParentheses
    (Lexeme.ofText_eq_ok_iff.1 hlexemes).isGroup hnodes node hnode).1
  intro statement hstatement
  obtain ⟨piece, hpiece, rfl⟩ := List.mem_map.1 hstatement
  have hcut := (List.mem_filter.1 hpiece).1
  have hpieces : ∀ node ∈ piece, Bracketed node := fun node hnode =>
    (bracketed_stripped hbracketed stripComments).1 node (mem_of_mem_cutAtSemicolons hcut hnode)
  refine .group (Shape.statement (not_where_of_mem_groupAll piece) ?_) (shaped_groupAll hpieces)
  exact not_semicolon_of_mem_dropLast_groupAll hpieces (not_semicolon_of_mem_dropLast hcut)

theorem shaped_of_statementsOfText_ordered :
    ∃ statements, statementsOfText
        "SELECT f(a) OVER w, -1 + b.c d -- x\nFROM (t) WHERE a = 1 ORDER BY a DESC;SELECT CASE END"
        true = .ok statements ∧
      statements.length = 2 ∧ ∀ statement ∈ statements, Everywhere Shaped statement := by
  have hcount : (statementsOfText
      "SELECT f(a) OVER w, -1 + b.c d -- x\nFROM (t) WHERE a = 1 ORDER BY a DESC;SELECT CASE END"
      true).toOption.map List.length = some 2 := by
    decide +kernel
  obtain ⟨statements, hstatements, hlength⟩ := exists_of_map hcount
  exact ⟨statements, hstatements, hlength, shaped_of_statementsOfText hstatements⟩

end QueryLineage.Node
