import QueryLineage.Proofs.Tree.Enclosed

/-!
# How grouped trees begin

Every group that grouping makes begins with a node that is neither blank nor a comment, and only
the groups of `CASE` and `WHERE` begin with a keyword. So what a group shows never begins with one
of the keywords from which a generated name could be read.
-/

namespace QueryLineage.Node

/-- The property holds of the node and of everything below it. -/
inductive Everywhere (P : Node → Prop) : Node → Prop
  | intro {node : Node} (h : P node) (hchildren : ∀ child ∈ node.children, Everywhere P child) :
      Everywhere P node

namespace Everywhere

variable {P : Node → Prop} {node : Node}

theorem here (h : Everywhere P node) : P node := by
  cases h with
  | intro h _ => exact h

theorem child (h : Everywhere P node) : ∀ child ∈ node.children, Everywhere P child := by
  cases h with
  | intro _ hchildren => exact hchildren

theorem leaf {kind : Kind} {text : String} (h : P (Node.leaf kind text)) :
    Everywhere P (Node.leaf kind text) :=
  .intro h (by simp)

theorem group {kind : Kind} {children : List Node} (h : P (Node.group kind children))
    (hchildren : ∀ child ∈ children, Everywhere P child) :
    Everywhere P (Node.group kind children) :=
  .intro h hchildren

theorem enclose {kind : Kind} {siblings : List Node} {n : Nat}
    (h : P (Node.enclose kind node (siblings.take n))) (hnode : Everywhere P node)
    (hsiblings : ∀ sibling ∈ siblings, Everywhere P sibling) :
    Everywhere P (Node.enclose kind node (siblings.take n)) := by
  refine .group h fun child hchild => ?_
  rcases List.mem_cons.1 hchild with rfl | hchild
  · exact hnode
  · exact hsiblings child (List.mem_of_mem_take hchild)

theorem attach {siblings : List Node} {n : Nat} (h : P (Node.attach node (siblings.take n)))
    (hnode : Everywhere P node) (hsiblings : ∀ sibling ∈ siblings, Everywhere P sibling) :
    Everywhere P (Node.attach node (siblings.take n)) := by
  have htaken : ∀ sibling ∈ siblings.take n, Everywhere P sibling :=
    fun sibling hsibling => hsiblings sibling (List.mem_of_mem_take hsibling)
  refine .intro h fun child hchild => ?_
  unfold Node.attach at hchild
  split at hchild
  · rcases List.mem_append.1 hchild with hchild | hchild
    · exact hnode.child child hchild
    · exact htaken child hchild
  · exact htaken child hchild
  · rcases List.mem_cons.1 hchild with rfl | hchild
    · exact hnode
    · exact htaken child hchild

end Everywhere

/-- What holds of lexemes and passes from nodes to the groups and parentheses that are made of them
holds of everything that grouping yields. -/
theorem Closed.groupAll {P : Node → Prop} (hP : Closed P) {Q : Lexeme → Prop}
    (hlexeme : ∀ lexeme, lexeme.kind.isGroup = false → Q lexeme → P lexeme.toNode)
    (hparentheses : ∀ inner : List Node, (∀ node ∈ inner, node.isMark "(" = false) →
      (∀ node ∈ inner, node.isMark ")" = false) → (∀ node ∈ Node.groupAll inner, P node) →
      P (enclosed (Node.groupAll inner))) {nodes : List Node}
    (hnodes : ∀ node ∈ nodes, Bracketed node) (hfringe : ∀ lexeme ∈ fringeAll nodes, Q lexeme) :
    ∀ node ∈ groupAll nodes, P node := by
  have hinside : ∀ node, Bracketed node → (∀ lexeme ∈ node.fringe, Q lexeme) →
      P node.groupInside := by
    intro node hnode
    induction hnode with
    | @lexeme lexeme hkind =>
      intro hfringe
      exact hlexeme lexeme hkind (hfringe lexeme (by simp))
    | @parentheses inner _ hopening hclosing ih =>
      intro hfringe
      rw [groupInside_parentheses]
      apply hparentheses inner hopening hclosing
      rw [Node.groupAll, groupInsideAll_eq_map]
      apply hP.groupRun
      intro node hnode
      obtain ⟨child, hchild, rfl⟩ := List.mem_map.1 hnode
      apply ih child hchild
      intro lexeme hlexeme
      apply hfringe
      rw [fringe_group_cons, fringeAll_append]
      exact List.mem_append_right _ (List.mem_append_left _ (mem_fringeAll_of_mem hchild hlexeme))
  rw [Node.groupAll, groupInsideAll_eq_map]
  apply hP.groupRun
  intro node hnode
  obtain ⟨child, hchild, rfl⟩ := List.mem_map.1 hnode
  exact hinside child (hnodes child hchild) fun lexeme hlexeme =>
    hfringe lexeme (mem_fringeAll_of_mem hchild hlexeme)

/-- The node shows something at once. If that is a keyword other than `CASE` and `WHERE`, it shows
nothing else. -/
def Headed (node : Node) : Prop :=
  ∃ lexeme rest, node.fringe = lexeme :: rest ∧ lexeme.kind ≠ .whitespace ∧
    (lexeme.kind.isKeyword = true →
      node = lexeme.toNode ∨ lexeme.toNode.isWordIn ["CASE", "WHERE"] = true)

/-- How a group begins, depending on its kind. -/
structure Formed (node : Node) : Prop where
  headed : node.isWhitespace = false → node.Headed
  identifier : node.kind = .identifier → ∃ first rest, node.children = first :: rest ∧
    first.isFiller .all = false ∧ first.isKeyword = false
  call : node.kind = .function → ∃ called blanks parentheses rest,
    node.children = called :: (blanks ++ parentheses :: rest) ∧ called.kind = .name ∧
    (∀ blank ∈ blanks, blank.isWhitespace = true) ∧ parentheses.kind = .parenthesis

theorem Headed.group {first : Node} (h : first.Headed) (hfirst : first.isKeyword = false)
    (kind : Kind) (rest : List Node) : (group kind (first :: rest)).Headed := by
  obtain ⟨lexeme, others, hfringe, hkind, hhead⟩ := h
  refine ⟨lexeme, others ++ fringeAll rest, ?_, hkind, fun hkeyword => ?_⟩
  · rw [fringe_group_cons, hfringe, List.cons_append]
  · rcases hhead hkeyword with rfl | hword
    · exact absurd hkeyword (Bool.eq_false_iff.1 hfirst)
    · exact Or.inr hword

theorem formed_toNode {lexeme : Lexeme} (h : lexeme.kind.isGroup = false) :
    lexeme.toNode.Formed where
  headed hkind := by
    refine ⟨lexeme, [], fringe_toNode lexeme, ?_, fun _ => Or.inl rfl⟩
    intro heq
    rw [isWhitespace, Lexeme.toNode, kind_leaf, heq] at hkind
    cases hkind
  identifier hkind := by
    rw [Lexeme.toNode, kind_leaf] at hkind
    rw [hkind] at h
    cases h
  call hkind := by
    rw [Lexeme.toNode, kind_leaf] at hkind
    rw [hkind] at h
    cases h

/-- The first node of a group of the kinds `kind`, other than calls and identifiers. -/
theorem Formed.group {first : Node} (h : first.Formed) (hfirst : first.isWhitespace = false)
    (hkeyword : first.isKeyword = false) {kind : Kind} (hidentifier : kind ≠ .identifier)
    (hcall : kind ≠ .function) (rest : List Node) : (group kind (first :: rest)).Formed where
  headed _ := (h.headed hfirst).group hkeyword kind rest
  identifier hkind := absurd hkind hidentifier
  call hkind := absurd hkind hcall

theorem Formed.identifierGroup {first : Node} (h : first.Formed)
    (hfirst : first.isFiller .all = false) (hkeyword : first.isKeyword = false) (rest : List Node) :
    (Node.group .identifier (first :: rest)).Formed where
  headed _ := by
    have hnot : first.isWhitespace = false := by
      rw [isFiller_all, Bool.or_eq_false_iff] at hfirst
      exact hfirst.1
    exact (h.headed hnot).group hkeyword _ _
  identifier _ := ⟨first, rest, rfl, hfirst, hkeyword⟩
  call hkind := by cases hkind

section

variable {node : Node} {siblings : List Node} {n : Nat}

theorem not_filler_of_isItem (h : node.isItem = true) :
    node.isFiller .all = false ∧ node.isKeyword = false := by
  unfold isItem isOperand isKind at h
  unfold isKeyword
  rw [isFiller_all, isWhitespace, isComment]
  cases hkind : node.kind <;> simp_all [Kind.isOperand, Kind.isKeyword]

theorem not_filler_of_isOperand (h : node.isOperand = true) :
    node.isFiller .all = false ∧ node.isKeyword = false :=
  not_filler_of_isItem (by simp [isItem, h])

theorem formed_enclose (h : node.Formed) (hnode : node.isItem = true) {kind : Kind}
    (hcall : kind ≠ .function) (siblings : List Node) : (enclose kind node siblings).Formed := by
  obtain ⟨hfiller, hkeyword⟩ := not_filler_of_isItem hnode
  by_cases hkind : kind = .identifier
  · subst hkind
    exact h.identifierGroup hfiller hkeyword siblings
  · have hnot : node.isWhitespace = false := by
      rw [isFiller_all, Bool.or_eq_false_iff] at hfiller
      exact hfiller.1
    exact h.group hnot hkeyword hkind hcall siblings

theorem formed_attach (h : node.Formed) (hnode : node.isOperand = true) (siblings : List Node) :
    (attach node siblings).Formed := by
  obtain ⟨hfiller, hkeyword⟩ := not_filler_of_isOperand hnode
  unfold attach
  split
  · next children =>
    obtain ⟨first, rest, hchildren, hfirst, hfirstKeyword⟩ := h.identifier rfl
    obtain rfl : children = first :: rest := hchildren
    obtain ⟨lexeme, others, hfringe, hkind, hhead⟩ := h.headed rfl
    refine ⟨fun _ => ?_, fun _ => ⟨first, rest ++ siblings, rfl, hfirst, hfirstKeyword⟩,
      fun hcall => by cases hcall⟩
    refine ⟨lexeme, others ++ fringeAll siblings, ?_, hkind, fun hfirst => ?_⟩
    · rw [List.cons_append, fringe_group_cons, fringeAll_append, ← List.append_assoc,
        ← fringe_group_cons .identifier, hfringe, List.cons_append]
    · exact Or.inr ((hhead hfirst).resolve_left Node.noConfusion)
  · obtain ⟨first, rest, hchildren, -⟩ := h.identifier rfl
    cases hchildren
  · exact h.identifierGroup hfiller hkeyword siblings

theorem isItem_of_isOperand (h : node.isOperand = true) : node.isItem = true := by
  simp [isItem, h]

theorem exists_of_reach {filler : Filler} {p : Node → Bool} (h : reach filler p siblings = some n) :
    ∃ skipped found rest, siblings = skipped ++ found :: rest ∧ n = skipped.length + 1 ∧
      (∀ other ∈ skipped, other.isFiller filler = true) ∧ p found = true := by
  induction siblings generalizing n with
  | nil => cases h
  | cons first siblings ih =>
    rw [reach] at h
    by_cases hfiller : first.isFiller filler = true
    · rw [if_pos hfiller] at h
      obtain ⟨m, hm, rfl⟩ := Option.map_eq_some_iff.1 h
      obtain ⟨skipped, found, rest, rfl, rfl, hskipped, hfound⟩ := ih hm
      refine ⟨first :: skipped, found, rest, rfl, rfl, ?_, hfound⟩
      intro other hother
      rcases List.mem_cons.1 hother with rfl | hother
      · exact hfiller
      · exact hskipped other hother
    · rw [if_neg hfiller] at h
      split at h
      · next hp =>
        cases h
        exact ⟨[], first, siblings, rfl, rfl, by simp, hp⟩
      · cases h

theorem formed_call (h : node.Formed) (hextent : callExtent node siblings = some n) :
    (enclose .function node (siblings.take n)).Formed := by
  unfold callExtent at hextent
  split at hextent
  case isFalse => cases hextent
  next hname =>
  obtain ⟨m, hm, rfl⟩ := Option.map_eq_some_iff.1 hextent
  obtain ⟨blanks, parentheses, rest, rfl, rfl, hblanks, hparentheses⟩ := exists_of_reach hm
  have hoperand : node.isOperand = true := by
    rw [isOperand, beq_iff_eq.1 hname]
    rfl
  obtain ⟨hfiller, hkeyword⟩ := not_filler_of_isOperand hoperand
  rw [isFiller_all, Bool.or_eq_false_iff] at hfiller
  refine ⟨fun _ => (h.headed hfiller.1).group hkeyword .function _, fun hkind => ?_, fun _ => ?_⟩
  · cases hkind
  · generalize (windowExtent _).getD 0 = window
    have htake : (blanks ++ parentheses :: rest).take (blanks.length + 1 + window) =
        blanks ++ parentheses :: rest.take window := by
      rw [Nat.add_assoc, List.take_length_add_append, Nat.add_comm 1, List.take_succ_cons]
    refine ⟨node, blanks, parentheses, rest.take window, ?_, beq_iff_eq.1 hname, ?_,
      beq_iff_eq.1 hparentheses⟩
    · rw [enclose, children_group, htake]
    · intro blank hblank
      rw [← isFiller_blanks]
      exact hblanks blank hblank

theorem isOperand_of_extent {extent : Node → List Node → Option Nat}
    (hnone : node.isOperand = false → ∀ siblings, extent node siblings = none)
    (h : extent node siblings = some n) : node.isOperand = true := by
  cases hoperand : node.isOperand with
  | true => rfl
  | false =>
    rw [hnone hoperand] at h
    cases h

theorem isItem_of_asExtent (h : asExtent node siblings = some n) : node.isItem = true := by
  unfold asExtent at h
  split at h
  · next hnode =>
    rw [Bool.or_eq_true] at hnode
    rcases hnode with hnode | hnode <;> simp [isItem, hnode]
  · cases h

theorem isItem_of_listExtent (h : listExtent node siblings = some n) : node.isItem = true := by
  unfold listExtent at h
  split at h
  · next hnode => exact (Bool.and_eq_true _ _ ▸ hnode).1
  · cases h

end

theorem formed_word {node : Node} {word : String} (h : node.Formed) (hword : node.isWord word = true)
    (hmem : word ∈ ["CASE", "WHERE"]) {kind : Kind} (hidentifier : kind ≠ .identifier)
    (hcall : kind ≠ .function) (rest : List Node) : (group kind (node :: rest)).Formed where
  headed _ := by
    have hblank : node.isWhitespace = false := by
      have hkeyword : node.isKeyword = true := (Bool.and_eq_true _ _ ▸ hword).1
      unfold isKeyword at hkeyword
      unfold isWhitespace
      cases hkind : node.kind <;> simp_all [Kind.isKeyword]
    obtain ⟨lexeme, others, hfringe, hkind, hhead⟩ := h.headed hblank
    refine ⟨lexeme, others ++ fringeAll rest, ?_, hkind, fun hkeyword => Or.inr ?_⟩
    · rw [fringe_group_cons, hfringe, List.cons_append]
    · rcases hhead hkeyword with rfl | hin
      · simp only [isWord, Bool.and_eq_true, beq_iff_eq] at hword
        rw [isWordIn, hword.1, hword.2, Bool.true_and]
        exact List.contains_iff_mem.2 hmem
      · exact hin
  identifier hkind := absurd hkind hidentifier
  call hkind := absurd hkind hcall

/-- Every group that is made is formed, whatever stands around it. -/
theorem closed_formed : Closed (Everywhere Formed) where
  call node siblings n hextent hnode hsiblings :=
    .enclose (formed_call hnode.here hextent) hnode hsiblings
  identifier node siblings n hextent hnode hsiblings := by
    have hoperand := isOperand_of_extent identifierExtent_of_not_operand hextent
    exact .enclose (formed_enclose hnode.here (isItem_of_isOperand hoperand) (by simp) _) hnode
      hsiblings
  sign sign operand hsign _ hnode hother := by
    have hkind : sign.kind = .operator := by
      unfold isSign isKind at hsign
      exact beq_iff_eq.1 (Bool.and_eq_true _ _ ▸ hsign).1
    refine .group (hnode.here.group ?_ ?_ (by simp) (by simp) _) ?_
    · rw [isWhitespace, hkind]
      rfl
    · rw [isKeyword, hkind]
      rfl
    · intro child hchild
      simp only [List.mem_cons, List.not_mem_nil, or_false] at hchild
      rcases hchild with rfl | rfl
      · exact hnode
      · exact hother
  operation node siblings n hextent hnode hsiblings := by
    have hoperand := isOperand_of_extent operationExtent_of_not_operand hextent
    exact .enclose (formed_enclose hnode.here (isItem_of_isOperand hoperand) (by simp) _) hnode
      hsiblings
  comparison node siblings n hextent hnode hsiblings := by
    have hoperand := isOperand_of_extent comparisonExtent_of_not_operand hextent
    exact .enclose (formed_enclose hnode.here (isItem_of_isOperand hoperand) (by simp) _) hnode
      hsiblings
  named node siblings n hextent hnode hsiblings :=
    .enclose (formed_enclose hnode.here (isItem_of_asExtent hextent) (by simp) _) hnode hsiblings
  aliased node siblings n hextent hnode hsiblings := by
    have hoperand := isOperand_of_extent aliasExtent_of_not_operand hextent
    exact .enclose (formed_enclose hnode.here (isItem_of_isOperand hoperand) (by simp) _) hnode
      hsiblings
  directed node siblings n hextent hnode hsiblings := by
    have hoperand := isOperand_of_extent directionExtent_of_not_operand hextent
    exact .attach (formed_attach hnode.here hoperand _) hnode hsiblings
  commented node siblings n hextent hnode hsiblings := by
    have hoperand := isOperand_of_extent commentExtent_of_not_operand hextent
    exact .attach (formed_attach hnode.here hoperand _) hnode hsiblings
  listed node siblings n hextent hnode hsiblings :=
    .enclose (formed_enclose hnode.here (isItem_of_listExtent hextent) (by simp) _) hnode hsiblings
  caseBlock node inner ending hword _ hnode hinner hending := by
    refine .group (formed_word hnode.here hword (by simp) (by simp) (by simp) _) ?_
    intro child hchild
    rcases List.mem_cons.1 hchild with rfl | hchild
    · exact hnode
    · rcases List.mem_append.1 hchild with hchild | hchild
      · exact hinner child hchild
      · rwa [List.mem_singleton.1 hchild]
  clause node inner hword _ hnode hinner := by
    refine .group (formed_word hnode.here hword (by simp) (by simp) (by simp) _) ?_
    intro child hchild
    rcases List.mem_cons.1 hchild with rfl | hchild
    · exact hnode
    · exact hinner child hchild

theorem formed_groupAll {nodes : List Node} (h : ∀ node ∈ nodes, Bracketed node) :
    ∀ node ∈ groupAll nodes, Everywhere Formed node := by
  have hlexeme : ∀ lexeme : Lexeme, lexeme.kind.isGroup = false → True →
      Everywhere Formed lexeme.toNode := fun lexeme hkind _ => .leaf (formed_toNode hkind)
  have hparentheses : ∀ inner : List Node, (∀ node ∈ inner, Everywhere Formed node) →
      Everywhere Formed (enclosed inner) := by
    intro inner hinner
    have hopening : Formed openingMark :=
      formed_toNode (show Lexeme.opening.kind.isGroup = false from rfl)
    have hclosing : Formed closingMark :=
      formed_toNode (show Lexeme.closing.kind.isGroup = false from rfl)
    refine .group (hopening.group rfl rfl (by simp) (by simp) _) ?_
    intro child hchild
    rcases List.mem_cons.1 hchild with rfl | hchild
    · exact .leaf hopening
    · rcases List.mem_append.1 hchild with hchild | hchild
      · exact hinner child hchild
      · obtain rfl := List.mem_singleton.1 hchild
        exact .leaf hclosing
  exact closed_formed.groupAll hlexeme (fun inner _ _ => hparentheses (groupAll inner)) h
    fun _ _ => trivial

end QueryLineage.Node
